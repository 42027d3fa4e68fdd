/-!
# Fixed decimal places

A finite double is a whole number times a power of two, so it has an exact decimal expansion. Here it
is cut to a fixed number of places: to the nearest such decimal, and of two equally near to the one
whose last digit is even.

## Main results

* `Decimal.roundQuotient_exact` : a quotient that is whole is not changed.
-/

namespace CellHost.Decimal

/-- The whole number nearest to a quotient, the even one of two equally near. -/
def roundQuotient (num den : Nat) : Nat :=
  let q := num / den
  let twice := 2 * (num % den)
  if twice < den then q
  else if den < twice then q + 1
  else if q % 2 = 0 then q
  else q + 1

theorem roundQuotient_exact (n : Nat) {den : Nat} (h : 0 < den) :
    roundQuotient (n * den) den = n := by
  simp [roundQuotient, Nat.mul_div_cancel _ h, h]

/-- Mantissa and binary exponent of the magnitude of a finite double. -/
def magnitude (x : Float) : Nat × Int :=
  let bits := x.toBits.toNat
  let field : Nat := (bits >>> 52) % 0x800
  let fraction : Nat := bits % (1 <<< 52)
  if field = 0 then (fraction, -1074) else ((1 <<< 52) + fraction, (field : Int) - 1075)

/-- A count of units of the last of `places` places, as a decimal. -/
def ofUnits (places units : Nat) : String :=
  let digits := toString (units % Nat.pow 10 places)
  let zeros := String.ofList (List.replicate (places - digits.length) '0')
  s!"{units / Nat.pow 10 places}.{zeros}{digits}"

/-- The magnitude of a finite double to a fixed number of places, one at least. -/
def fixed (places : Nat) (x : Float) : String :=
  let (mantissa, exponent) := magnitude x
  let scaled := mantissa * Nat.pow 10 places
  ofUnits places <|
    if 0 ≤ exponent then scaled <<< exponent.toNat
    else roundQuotient scaled (1 <<< (-exponent).toNat)

/-- A time in nanoseconds as a double of seconds: whole seconds plus the fraction. -/
def seconds (nanos : Nat) : Float :=
  (nanos / 1000000000).toUInt64.toFloat + (nanos % 1000000000).toUInt64.toFloat / 1000000000.0

end CellHost.Decimal
