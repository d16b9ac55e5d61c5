namespace SmallLisp

/-- The quotient towards zero, by way of the magnitudes: it has a minus unless the signs agree. -/
def truncatedQuotient (dividend divisor : Int) : Int :=
  let magnitude := Int.fdiv dividend.natAbs divisor.natAbs
  if dividend < 0 ↔ divisor < 0 then magnitude else -magnitude

/-- What the quotient towards zero leaves. -/
def truncatedRemainder (dividend divisor : Int) : Int :=
  dividend - divisor * truncatedQuotient dividend divisor

/-- The quotient towards zero and what it leaves; none for a zero divisor. -/
def truncatedDivision? (dividend divisor : Int) : Option (Int × Int) :=
  if divisor = 0 then none
  else some (truncatedQuotient dividend divisor, truncatedRemainder dividend divisor)

/-- The quotient towards the floor and what it leaves, which has the sign of the divisor; none for a
zero divisor. -/
def floorDivision? (dividend divisor : Int) : Option (Int × Int) :=
  if divisor = 0 then none else some (dividend.fdiv divisor, dividend.fmod divisor)

inductive Arithmetic
  | add
  | multiply
  | subtract
  | divide
  | modulo
  | quotient
  | remainder
  deriving DecidableEq

/-- The result of an operation; none for a zero divisor. -/
def Arithmetic.apply? : Arithmetic → Int → Int → Option Int
  | add, a, b => some (a + b)
  | multiply, a, b => some (a * b)
  | subtract, a, b => some (a - b)
  | divide, a, b => (floorDivision? a b).map Prod.fst
  | modulo, a, b => (floorDivision? a b).map Prod.snd
  | quotient, a, b => (truncatedDivision? a b).map Prod.fst
  | remainder, a, b => (truncatedDivision? a b).map Prod.snd

inductive Relation
  | equal
  | less
  | greater
  | notEqual
  | atLeast
  | atMost
  deriving DecidableEq

def Relation.holds : Relation → Ordering → Bool
  | equal, order => order = .eq
  | less, order => order = .lt
  | greater, order => order = .gt
  | notEqual, order => order ≠ .eq
  | atLeast, order => order ≠ .lt
  | atMost, order => order ≠ .gt

/-- The order of two whole numbers. -/
def orderNumbers (a b : Int) : Ordering :=
  if a < b then .lt else if a = b then .eq else .gt

/-- The order of two texts: by the code points where they first differ, a text before its
extensions. -/
def orderTexts : List Char → List Char → Ordering
  | [], [] => .eq
  | [], _ :: _ => .lt
  | _ :: _, [] => .gt
  | a :: as, b :: bs =>
    if a.toNat < b.toNat then .lt else if b.toNat < a.toNat then .gt else orderTexts as bs

end SmallLisp
