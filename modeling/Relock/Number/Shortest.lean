/-!
# The shortest decimal text of a binary64 number

A finite binary64 number is `m · 2^q`. The decimals that read back as it form an interval around it,
whose ends belong to it exactly when `m` is even. The text shows the multiple of the largest power
of ten that lies in the interval, and of several such multiples the one nearest to the number: no
decimal with fewer digits reads back. All arithmetic is exact, on `Nat`.

Numbers from 10⁻⁴ up to below 10¹⁶ are written positionally and keep one digit after the point;
others have an exponent of at least two digits with its sign.
-/

namespace Relock.Number

/-- The number `mantissa · 2^exponent`. A power of two has its lower neighbour at half the usual
distance, which `narrow` records. -/
structure Dyadic where
  mantissa : Nat
  exponent : Int
  narrow : Bool

/-- The magnitude of a finite binary64 number. -/
def Dyadic.ofFloat (x : Float) : Dyadic :=
  let bits := x.toBits.toNat
  let fraction : Nat := bits % Nat.pow 2 52
  let biased : Nat := bits / Nat.pow 2 52 % Nat.pow 2 11
  if biased = 0 then ⟨fraction, -1074, false⟩
  else ⟨fraction + Nat.pow 2 52, (biased : Int) - 1075, fraction = 0 && decide (1 < biased)⟩

/-- Factors that put a quarter of the number's last binary place and `10^t` on one scale. -/
def Dyadic.scales (x : Dyadic) (t : Int) : Nat × Nat :=
  (Nat.pow 2 (x.exponent - 2).toNat * Nat.pow 10 (-t).toNat,
    Nat.pow 10 t.toNat * Nat.pow 2 (2 - x.exponent).toNat)

/-- Whether `d · 10^t` reads back as the number. -/
def Dyadic.holds (x : Dyadic) (t : Int) (d : Nat) : Bool :=
  let (binary, decimal) := x.scales t
  let low := (4 * x.mantissa - if x.narrow then 1 else 2) * binary
  let high := (4 * x.mantissa + 2) * binary
  if x.mantissa % 2 = 0 then decide (low ≤ d * decimal) && decide (d * decimal ≤ high)
  else decide (low < d * decimal) && decide (d * decimal < high)

/-- The multiple of `10^t` nearest to the number among those that read back as it; of two equally
near ones the even one. -/
def Dyadic.multiple? (x : Dyadic) (t : Int) : Option Nat :=
  let (binary, decimal) := x.scales t
  let exact := 4 * x.mantissa * binary
  let d := exact / decimal
  match decide (0 < d) && x.holds t d, x.holds t (d + 1) with
  | true, true =>
    let below := exact - d * decimal
    let above := (d + 1) * decimal - exact
    some (if below < above || (below = above && d % 2 = 0) then d else d + 1)
  | true, false => some d
  | false, true => some (d + 1)
  | false, false => none

/-- The shortest decimal `d · 10^t` of the number; zero has none. Every other binary64 magnitude has
one with `-330 < t ≤ 310`. -/
def Dyadic.shortest? (x : Dyadic) : Option (Nat × Int) :=
  if x.mantissa = 0 then none
  else (List.range 640).findSome? fun (i : Nat) =>
    let t : Int := 310 - (i : Int)
    (x.multiple? t).map (·, t)

/-- The text of `d · 10^t`, positional or with an exponent by the place of its first digit. -/
def decimalText (d : Nat) (t : Int) : String :=
  let digits := Nat.toDigits 10 d
  let point := (digits.length : Int) + t
  if point ≤ -4 || point > 16 then
    let exponent := point - 1
    let size := Nat.toDigits 10 exponent.natAbs
    let tail := digits.drop 1
    String.ofList (digits.take 1 ++ (if tail.isEmpty then [] else '.' :: tail) ++
      ['e', if exponent < 0 then '-' else '+'] ++ List.replicate (2 - size.length) '0' ++ size)
  else if point ≤ 0 then
    String.ofList ('0' :: '.' :: List.replicate (-point).toNat '0' ++ digits)
  else
    let whole := digits.take point.toNat
    let fraction := digits.drop point.toNat
    String.ofList (whole ++ List.replicate (point.toNat - digits.length) '0' ++ ['.'] ++
      if fraction.isEmpty then ['0'] else fraction)

/-- The shortest text that reads back as `x`. -/
def realText (x : Float) : String :=
  let sign := if x.toBits.toNat / Nat.pow 2 63 = 1 then "-" else ""
  if x.isNaN then "nan"
  else if x.isInf then sign ++ "inf"
  else match (Dyadic.ofFloat x).shortest? with
    | some (d, t) => sign ++ decimalText d t
    | none => sign ++ "0.0"

end Relock.Number
