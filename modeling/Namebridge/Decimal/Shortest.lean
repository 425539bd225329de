/-!
# The shortest decimal of a binary fraction

A binary floating point number stands for all reals that round to it. Among the decimals in that
interval `shortest` takes one with the fewest digits, and of several the one nearest to the number.
All arithmetic is exact.
-/

namespace Namebridge.Decimal

/-- A positive decimal `digits · 10 ^ exponent`. -/
structure Scaled where
  digits : Nat
  exponent : Int
deriving DecidableEq, Repr

/-- A positive binary number `mantissa · 2 ^ exponent`. -/
structure Binary where
  mantissa : Nat
  exponent : Int
  /-- Whether the next smaller number is only half as far away as the next larger one. -/
  isPowerStart : Bool
deriving DecidableEq, Repr

/-- The decimal on the grid of multiples of `10 ^ k` that rounds to the number, if there is one. Of
two the nearer one is taken, and of two that are equally near the even one. -/
def onGrid (x : Binary) (k : Int) : Option Nat :=
  -- all quantities are multiplied by four and by `unit`, to make them integers
  let unit := Nat.pow 2 x.exponent.toNat * Nat.pow 10 (-k).toNat
  let step := 4 * (Nat.pow 2 (-x.exponent).toNat * Nat.pow 10 k.toNat)
  let value := 4 * x.mantissa * unit
  let lowest := (4 * x.mantissa - (if x.isPowerStart then 1 else 2)) * unit
  let highest := (4 * x.mantissa + 2) * unit
  let fits (d : Nat) : Bool :=
    0 < d && (if x.mantissa % 2 = 0 then lowest ≤ d * step && d * step ≤ highest
      else lowest < d * step && d * step < highest)
  let below := value / step
  let above := below + 1
  let belowIsNearer : Bool :=
    let under := value - below * step
    let beyond := above * step - value
    under < beyond || (under = beyond && below % 2 = 0)
  match fits below, fits above with
  | true, true => some (if belowIsNearer then below else above)
  | true, false => some below
  | false, true => some above
  | false, false => none

/-- The decimal on the coarsest grid, from `10 ^ k` on down through `count` grids. -/
def coarsest (x : Binary) (k : Int) : (count : Nat) → Option Scaled
  | 0 => none
  | count + 1 =>
      match onGrid x k with
      | some digits => some ⟨digits, k⟩
      | none => coarsest x (k - 1) count

/-- The shortest decimal that rounds to the number. Zero has none. -/
def shortest (x : Binary) : Option Scaled :=
  if x.mantissa = 0 then none else coarsest x 309 650

/-- The weight of the bit that tells the sign. -/
def signWeight : Nat := 0x8000000000000000

/-- The weight of the leading bit of a fraction, which is not stored. -/
def leadingWeight : Nat := 0x10000000000000

/-- The absolute value of a finite number other than zero. -/
def ofFloat (f : Float) : Binary :=
  let bits : Nat := f.toBits.toNat % signWeight
  let fraction : Nat := bits % leadingWeight
  let scale : Nat := bits / leadingWeight
  if scale = 0 then ⟨fraction, -1074, false⟩
  else ⟨leadingWeight + fraction, Int.ofNat scale - 1075, fraction = 0 && 1 < scale⟩

/-- Whether a number has a minus sign, which zero can have too. -/
def isNegative (f : Float) : Bool := signWeight ≤ f.toBits.toNat

/-- A decimal with a point: in positions if it is at least `10 ^ -5` and less than `10 ^ 16`, and
else with an exponent. At least one digit stands on each side of a point. -/
def Scaled.text (s : Scaled) : String :=
  let digits := toString s.digits
  let length := digits.length
  let point := (length : Int) + s.exponent
  let zeros (n : Nat) : String := String.ofList (List.replicate n '0')
  if 0 ≤ s.exponent && point ≤ 16 then digits ++ zeros s.exponent.toNat ++ ".0"
  else if 0 < point && point ≤ 16 then
    String.ofList (digits.toList.take point.toNat) ++ "."
      ++ String.ofList (digits.toList.drop point.toNat)
  else if -5 < point && point ≤ 0 then "0." ++ zeros (-point).toNat ++ digits
  else
    let rest := digits.toList.drop 1
    String.ofList (digits.toList.take 1)
      ++ (if rest.isEmpty then "" else "." ++ String.ofList rest)
      ++ "e" ++ toString (point - 1)

/-- The text of a finite number. -/
def text (f : Float) : String :=
  let unsigned := match shortest (ofFloat f) with
    | some s => s.text
    | none => "0.0"
  if isNegative f then "-" ++ unsigned else unsigned

end Namebridge.Decimal
